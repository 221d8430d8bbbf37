import Mathlib.Data.String.Basic
import Velorix.Foundation.Grouping
import Velorix.Meta.Types

/-! Source cuts: how far the committed ranges of a relation reach on every partition, built
from the reservations and the batch keys or publications that were committed. -/
namespace Velorix.Meta

def ingestSourceCutSchemaVersionV1 : UInt32 := 1

def ingestSourceIdentityGenerationV1 : UInt64 := 1

def relationIngestSourceCutSchemaVersionV1 : UInt32 := 1

structure IngestSourceRelationIdentityV1 where
  relationId : String
  relationVersion : String
  relationGeneration : UInt64
  schemaFingerprint : String

namespace IngestSourceRelationIdentityV1

def fields (relation : IngestSourceRelationIdentityV1) : String ×ₗ String ×ₗ UInt64 ×ₗ String :=
  toLex (relation.relationId, toLex (relation.relationVersion,
    toLex (relation.relationGeneration, relation.schemaFingerprint)))

theorem fields_injective : Function.Injective fields := by
  rintro ⟨id, version, generation, fingerprint⟩ ⟨id', version', generation', fingerprint'⟩ h
  simp only [fields, toLex_inj, Prod.mk.injEq] at h
  obtain ⟨rfl, rfl, rfl, rfl⟩ := h
  rfl

instance : LinearOrder IngestSourceRelationIdentityV1 := LinearOrder.lift' fields fields_injective

def validate (relation : IngestSourceRelationIdentityV1) : Except MetaStoreError Unit := do
  requireNonEmpty "relation_id" relation.relationId
  requireNonEmpty "relation_version" relation.relationVersion
  require (relation.relationGeneration ≠ 0)
    (.integerOutOfRange "relation_generation" relation.relationGeneration)
  requireNonEmpty "schema_fingerprint" relation.schemaFingerprint

end IngestSourceRelationIdentityV1

structure IngestSourcePartitionCutV1 where
  streamId : String
  streamGeneration : UInt64
  partitionId : UInt32
  partitionGeneration : UInt64
  baseOffsetInclusive : UInt64
  committedOffsetExclusive : UInt64
  deriving DecidableEq

structure IngestSourceRelationCutV1 where
  relation : IngestSourceRelationIdentityV1
  partitions : List IngestSourcePartitionCutV1
  deriving DecidableEq

structure IngestSourceCutV1 where
  schemaVersion : UInt32
  inputCatalogEpoch : UInt64
  relations : List IngestSourceRelationCutV1
  deriving DecidableEq

/-- The requested relations are valid and no two are the same. -/
def validateRelations (check : IngestSourceRelationIdentityV1 → Except MetaStoreError Unit) :
    List IngestSourceRelationIdentityV1 → List IngestSourceRelationIdentityV1 →
      Except MetaStoreError Unit
  | _, [] => .ok ()
  | seen, relation :: relations => do
    check relation
    require (relation ∉ seen)
      (.duplicateSourceCutRelation relation.relationId relation.relationVersion)
    validateRelations check (relation :: seen) relations

/-- `CaptureIngestSourceCutRequest`: the relations to cut. -/
structure CaptureIngestSourceCutRequest where
  relations : List IngestSourceRelationIdentityV1
  deriving DecidableEq

def CaptureIngestSourceCutRequest.validate (request : CaptureIngestSourceCutRequest) :
    Except MetaStoreError Unit :=
  validateRelations IngestSourceRelationIdentityV1.validate [] request.relations

def IngestRangeReservation.relationIdentity (reservation : IngestRangeReservation) :
    IngestSourceRelationIdentityV1 :=
  ⟨reservation.relationId, reservation.relationVersion, ingestSourceIdentityGenerationV1,
    reservation.schemaFingerprint⟩

abbrev SourceKey := IngestSourceRelationIdentityV1 ×ₗ String ×ₗ UInt32

def sourceKey (relation : IngestSourceRelationIdentityV1)
    (reservation : IngestRangeReservation) : SourceKey :=
  toLex (relation, toLex (reservation.streamId, reservation.partitionId))

def SourceKey.relation (key : SourceKey) : IngestSourceRelationIdentityV1 := (ofLex key).1

def SourceKey.streamId (key : SourceKey) : String := (ofLex (ofLex key).2).1

def SourceKey.partitionId (key : SourceKey) : UInt32 := (ofLex (ofLex key).2).2

def groupReservation (requested : List IngestSourceRelationIdentityV1)
    (grouped : SortedMap SourceKey (List IngestRangeReservation))
    (reservation : IngestRangeReservation) :
    Except MetaStoreError (SortedMap SourceKey (List IngestRangeReservation)) := do
  reservation.validate
  return if reservation.relationIdentity ∈ requested then
    grouped.pushTo (sourceKey reservation.relationIdentity reservation) reservation
  else grouped

/-- Ranges are sorted by where they start, then by where they end. -/
def rangeLe (a b : IngestRangeReservation) : Prop :=
  toLex (a.startOffsetInclusive, a.endOffsetExclusive) ≤
    toLex (b.startOffsetInclusive, b.endOffsetExclusive)

instance : DecidableRel rangeLe := fun _ _ => inferInstanceAs (Decidable (_ ≤ _))

/-- Walks over sorted ranges, as far as they are contiguous and committed. -/
def committedOffset (committedBatchKeys : Finset String) (key : SourceKey) :
    UInt64 → List IngestRangeReservation → Except MetaStoreError UInt64
  | frontier, [] => .ok frontier
  | frontier, range :: ranges =>
    if range.startOffsetInclusive < frontier then
      .error (.overlappingSourceCutRange key.streamId key.partitionId)
    else if range.startOffsetInclusive ≠ frontier ∨ range.batchKey ∉ committedBatchKeys then
      .ok frontier
    else committedOffset committedBatchKeys key range.endOffsetExclusive ranges

/-- The base of a group: where its first range starts. A group has at least one range. -/
def baseOffset (ranges : List IngestRangeReservation) : UInt64 :=
  (ranges.head?.map IngestRangeReservation.startOffsetInclusive).getD 0

def partitionCut (committedBatchKeys : Finset String) (key : SourceKey)
    (group : List IngestRangeReservation) : Except MetaStoreError IngestSourcePartitionCutV1 := do
  let ranges := group.insertionSort rangeLe
  let committed ← committedOffset committedBatchKeys key (baseOffset ranges) ranges
  return ⟨key.streamId, ingestSourceIdentityGenerationV1, key.partitionId,
    ingestSourceIdentityGenerationV1, baseOffset ranges, committed⟩

/-- The cuts of one relation, in the order of the partitions. -/
def cutsOf {β : Type} (cuts : List (SourceKey × β)) (relation : IngestSourceRelationIdentityV1) :
    List β :=
  (cuts.filter fun entry => entry.1.relation = relation).map Prod.snd

def buildIngestSourceCut (request : CaptureIngestSourceCutRequest) (inputCatalogEpoch : UInt64)
    (reservations : List IngestRangeReservation) (committedBatchKeys : Finset String) :
    Except MetaStoreError IngestSourceCutV1 := do
  request.validate
  let grouped ← reservations.foldlM (groupReservation request.relations) ∅
  let cuts ← grouped.entries.mapM fun entry => do
    return (entry.1, ← partitionCut committedBatchKeys entry.1 entry.2)
  return ⟨ingestSourceCutSchemaVersionV1, inputCatalogEpoch,
    request.relations.map fun relation => ⟨relation, cutsOf cuts relation⟩⟩

/-- `view_bootstrap::source_cut_covers`, for one partition. -/
def IngestSourcePartitionCutV1.covers (candidate required : IngestSourcePartitionCutV1) : Bool :=
  candidate.streamId == required.streamId &&
    candidate.streamGeneration == required.streamGeneration &&
    candidate.partitionId == required.partitionId &&
    candidate.partitionGeneration == required.partitionGeneration &&
    candidate.baseOffsetInclusive == required.baseOffsetInclusive &&
    decide (candidate.committedOffsetExclusive ≥ required.committedOffsetExclusive)

def sourceCutCovers (candidate required : IngestSourceCutV1) : Bool :=
  decide (candidate.inputCatalogEpoch ≥ required.inputCatalogEpoch) &&
    required.relations.all fun requiredRelation =>
      candidate.relations.any fun candidateRelation =>
        decide (candidateRelation.relation = requiredRelation.relation) &&
          requiredRelation.partitions.all fun requiredPartition =>
            candidateRelation.partitions.any fun candidatePartition =>
              candidatePartition.covers requiredPartition

structure RelationIngestPublicationRefV1 where
  requestId : String
  startOffsetInclusive : UInt64
  endOffsetExclusive : UInt64
  batchKey : String
  payloadDigest : String
  objectKey : String
  objectDigest : String
  deriving DecidableEq

structure RelationIngestPartitionCutV1 where
  streamId : String
  partitionId : UInt32
  baseOffsetInclusive : UInt64
  committedOffsetExclusive : UInt64
  publications : List RelationIngestPublicationRefV1
  deriving DecidableEq

structure RelationIngestSourceCutV1 where
  schemaVersion : UInt32
  namespaceName : String
  relationId : String
  partitions : List RelationIngestPartitionCutV1
  deriving DecidableEq

structure RelationIngestSourceIdentityCutV1 where
  relation : IngestSourceRelationIdentityV1
  cut : RelationIngestSourceCutV1
  deriving DecidableEq

structure CaptureRelationIngestSourceCutsRequest where
  namespaceName : String
  relations : List IngestSourceRelationIdentityV1
  deriving DecidableEq

/-- A relation of a relation-wide cut is of the one generation there is. -/
def validateFirstGeneration (relation : IngestSourceRelationIdentityV1) :
    Except MetaStoreError Unit := do
  relation.validate
  require (relation.relationGeneration = ingestSourceIdentityGenerationV1)
    (.unsupportedRelationGeneration relation.relationGeneration)

variable (request : CaptureRelationIngestSourceCutsRequest)

def CaptureRelationIngestSourceCutsRequest.validate : Except MetaStoreError Unit := do
  requireNonEmpty "namespace" request.namespaceName
  require (!request.relations.isEmpty) (.emptyField "relations")
  validateRelations validateFirstGeneration [] request.relations

/-- What identifies a publication, and the reservation that it must match. -/
abbrev SourceEntryKey :=
  String ×ₗ String ×ₗ String ×ₗ UInt32 ×ₗ String ×ₗ String ×ₗ UInt64 ×ₗ UInt64 ×ₗ String ×ₗ
    String ×ₗ UInt64

def relationSourceEntryKey (authority : AuthorityKey) (reservation : IngestRangeReservation) :
    SourceEntryKey :=
  toLex (authority.namespaceName, toLex (authority.subject, toLex (authority.streamId,
    toLex (authority.partitionId, toLex (reservation.relationVersion,
      toLex (reservation.schemaFingerprint, toLex (reservation.startOffsetInclusive,
        toLex (reservation.endOffsetExclusive, toLex (reservation.batchKey,
          toLex (reservation.payloadDigest, reservation.writerEpoch))))))))))

/-- The requested relation of a reservation. -/
def CaptureRelationIngestSourceCutsRequest.relationOf (reservation : IngestRangeReservation) :
    Option IngestSourceRelationIdentityV1 :=
  request.relations.find? fun candidate =>
    candidate.relationId == reservation.relationId &&
      candidate.relationVersion == reservation.relationVersion

abbrev AuthorizedReservation := AuthorityKey × IngestRangeReservation

def groupRelationReservation
    (grouped : SortedMap SourceKey (List AuthorizedReservation)) (entry : AuthorizedReservation) :
    Except MetaStoreError (SortedMap SourceKey (List AuthorizedReservation)) := do
  let reservation := entry.2
  reservation.validate
  if entry.1.namespaceName ≠ request.namespaceName then return grouped
  else match request.relationOf reservation with
    | none => return grouped
    | some relation => do
      require (entry.1.overRelation reservation)
        (.incompleteRelationSourceCut reservation.relationId reservation.streamId
          reservation.partitionId "reservation authority scope mismatch")
      require (relation.schemaFingerprint = reservation.schemaFingerprint)
        (.serialization "relation source-cut reservation fingerprint mismatch")
      return grouped.pushTo (sourceKey relation reservation) entry

def indexPublication
    (index : SortedMap SourceEntryKey IngestPublication) (publication : IngestPublication) :
    Except MetaStoreError (SortedMap SourceEntryKey IngestPublication) :=
  if publication.authorityKey.namespaceName ≠ request.namespaceName then return index
  else match request.relationOf publication.reservation with
    | none => return index
    | some relation => do
      require (relation.schemaFingerprint = publication.reservation.schemaFingerprint)
        (.serialization "relation source-cut publication fingerprint mismatch")
      let key := relationSourceEntryKey publication.authorityKey publication.reservation
      require (index.find? key).isNone
        (.serialization "duplicate relation ingest publication in source-cut snapshot")
      return index.insert key publication

/-- Ranges with their authority, sorted by where they start and end and by batch key. -/
def authorizedLe (a b : AuthorizedReservation) : Prop :=
  toLex (a.2.startOffsetInclusive, toLex (a.2.endOffsetExclusive, a.2.batchKey)) ≤
    toLex (b.2.startOffsetInclusive, toLex (b.2.endOffsetExclusive, b.2.batchKey))

instance : DecidableRel authorizedLe := fun _ _ => inferInstanceAs (Decidable (_ ≤ _))

/-- How far a walk over the ranges of a partition has come. -/
structure RelationWalk where
  committedOffsetExclusive : UInt64
  unmatched : SortedMap SourceEntryKey IngestPublication
  refs : List RelationIngestPublicationRefV1

def IngestPublication.ref (publication : IngestPublication)
    (reservation : IngestRangeReservation) : RelationIngestPublicationRefV1 :=
  ⟨publication.requestId, reservation.startOffsetInclusive, reservation.endOffsetExclusive,
    reservation.batchKey, reservation.payloadDigest, publication.objectKey,
    publication.objectDigest⟩

def walkRange (key : SourceKey) (walk : RelationWalk) (entry : AuthorizedReservation) :
    Except MetaStoreError RelationWalk := do
  let reservation := entry.2
  require (!decide (reservation.startOffsetInclusive < walk.committedOffsetExclusive))
    (.overlappingSourceCutRange key.streamId key.partitionId)
  require (reservation.startOffsetInclusive = walk.committedOffsetExclusive)
    (.incompleteRelationSourceCut key.relation.relationId key.streamId key.partitionId
      "reservation hole")
  let entryKey := relationSourceEntryKey entry.1 reservation
  match walk.unmatched.find? entryKey with
  | none => .error (.incompleteRelationSourceCut key.relation.relationId key.streamId
      key.partitionId "missing authoritative publication")
  | some publication => return ⟨reservation.endOffsetExclusive, walk.unmatched.erase entryKey,
      walk.refs ++ [publication.ref reservation]⟩

/-- The cut of one partition, and the publications that are still unmatched after it. -/
def relationPartitionCut (unmatched : SortedMap SourceEntryKey IngestPublication)
    (key : SourceKey) (group : List AuthorizedReservation) :
    Except MetaStoreError
      (SortedMap SourceEntryKey IngestPublication × RelationIngestPartitionCutV1) := do
  let ranges := group.insertionSort authorizedLe
  let base := baseOffset (ranges.map Prod.snd)
  let walk ← ranges.foldlM (walkRange key) ⟨base, unmatched, []⟩
  return (walk.unmatched,
    ⟨key.streamId, key.partitionId, base, walk.committedOffsetExclusive, walk.refs⟩)

/-- The groups one after another, with the publications that no range has matched yet. -/
def relationPartitionCuts (groups : List (SourceKey × List AuthorizedReservation))
    (unmatched : SortedMap SourceEntryKey IngestPublication) :
    Except MetaStoreError
      (SortedMap SourceEntryKey IngestPublication × List RelationIngestPartitionCutV1) :=
  groups.foldlM (fun acc entry => do
    let cut ← relationPartitionCut acc.1 entry.1 entry.2
    return (cut.1, acc.2 ++ [cut.2])) (unmatched, [])

def relationCut (grouped : SortedMap SourceKey (List AuthorizedReservation))
    (acc : SortedMap SourceEntryKey IngestPublication × List RelationIngestSourceIdentityCutV1)
    (relation : IngestSourceRelationIdentityV1) :
    Except MetaStoreError
      (SortedMap SourceEntryKey IngestPublication ×
        List RelationIngestSourceIdentityCutV1) := do
  let partitions ← relationPartitionCuts
    (grouped.entries.filter fun entry => entry.1.relation = relation) acc.1
  return (partitions.1, acc.2 ++ [⟨relation, relationIngestSourceCutSchemaVersionV1,
    request.namespaceName, relation.relationId, partitions.2⟩])

/-- A publication of a requested relation that no reservation matched. -/
def CaptureRelationIngestSourceCutsRequest.wants (publication : IngestPublication) : Bool :=
  publication.authorityKey.namespaceName == request.namespaceName &&
    request.relations.any fun relation =>
      relation.relationId == publication.reservation.relationId &&
        relation.relationVersion == publication.reservation.relationVersion &&
        relation.schemaFingerprint == publication.reservation.schemaFingerprint

def buildRelationIngestSourceCuts
    (reservations : List AuthorizedReservation) (publications : List IngestPublication) :
    Except MetaStoreError (List RelationIngestSourceIdentityCutV1) := do
  request.validate
  let grouped ← reservations.foldlM (groupRelationReservation request) ∅
  let index ← publications.foldlM (indexPublication request) ∅
  let cuts ← request.relations.foldlM (relationCut request grouped) (index, [])
  match cuts.1.values.find? request.wants with
  | some publication => .error (.incompleteRelationSourceCut publication.reservation.relationId
      publication.reservation.streamId publication.reservation.partitionId
      "publication has no matching reservation")
  | none => return cuts.2

def RelationIngestPublicationRefV1.validate (publication : RelationIngestPublicationRefV1) :
    Except MetaStoreError Unit := do
  requireNonEmpty "source_cut.request_id" publication.requestId
  requireNonEmpty "source_cut.batch_key" publication.batchKey
  requireNonEmpty "source_cut.payload_digest" publication.payloadDigest
  requireNonEmpty "source_cut.object_key" publication.objectKey
  requireNonEmpty "source_cut.object_digest" publication.objectDigest

/-- The publications of a partition are contiguous; the result is where they end. -/
def validateContiguous (frontier : UInt64) (publication : RelationIngestPublicationRefV1) :
    Except MetaStoreError UInt64 := do
  publication.validate
  require (publication.startOffsetInclusive = frontier ∧
      publication.startOffsetInclusive < publication.endOffsetExclusive)
    (.serialization "relation source cut publications are not contiguous")
  return publication.endOffsetExclusive

def validatePartitionCut (previous : Option (String ×ₗ UInt32))
    (partition : RelationIngestPartitionCutV1) :
    Except MetaStoreError (Option (String ×ₗ UInt32)) := do
  requireNonEmpty "source_cut.stream_id" partition.streamId
  require (partition.baseOffsetInclusive ≤ partition.committedOffsetExclusive)
    (.serialization "relation source cut partition offsets are not monotonic")
  let key := toLex (partition.streamId, partition.partitionId)
  require (!previous.any fun earlier => decide (earlier ≥ key))
    (.serialization "relation source cut partitions are not canonical")
  let frontier ← partition.publications.foldlM validateContiguous partition.baseOffsetInclusive
  require (frontier = partition.committedOffsetExclusive)
    (.serialization "relation source cut frontier does not match publications")
  return some key

def validateRelationSourceCutPartitions (cut : RelationIngestSourceCutV1) :
    Except MetaStoreError Unit := do
  let _ ← cut.partitions.foldlM validatePartitionCut none

def canonicalizeEntry (namespaceName : String) (seen : List IngestSourceRelationIdentityV1)
    (entry : RelationIngestSourceIdentityCutV1) :
    Except MetaStoreError (List IngestSourceRelationIdentityV1) := do
  validateFirstGeneration entry.relation
  require (entry.relation ∉ seen)
    (.duplicateSourceCutRelation entry.relation.relationId entry.relation.relationVersion)
  require (entry.cut.schemaVersion = relationIngestSourceCutSchemaVersionV1)
    (.serialization "unsupported relation source cut schema version")
  requireNonEmpty "source_cut.namespace" entry.cut.namespaceName
  require (entry.cut.namespaceName = namespaceName ∧
      entry.cut.relationId = entry.relation.relationId)
    (.incompleteRelationSourceCut entry.relation.relationId "" 0 "source cut identity mismatch")
  validateRelationSourceCutPartitions entry.cut
  return entry.relation :: seen

def canonicalizeRelationIngestSourceCuts (cuts : List RelationIngestSourceIdentityCutV1) :
    Except MetaStoreError (List RelationIngestSourceIdentityCutV1) :=
  match cuts with
  | [] => .error (.emptyField "expected_relation_source_cuts")
  | first :: _ => do
    requireNonEmpty "source_cut.namespace" first.cut.namespaceName
    let _ ← cuts.foldlM (canonicalizeEntry first.cut.namespaceName) []
    return cuts.insertionSort fun a b => a.relation ≤ b.relation

end Velorix.Meta
