import Velorix.Admission.Records
import Velorix.Foundation.Fallible

/-! The programs of the ingest log and of its admission coordinator, call by call. A coordinator
made by `new_checked` reserves in the index before it looks at committed ranges. -/
namespace Velorix.Admission

open Storage FallibleProgram

/-- The requests to the object store, by namespace, and the accesses to the cache of committed
ranges that a coordinator keeps. -/
inductive Op
  | readRelationCatalog (relationId relationVersion : String)
  | listBatches
  | getBatch (range : IngestRange)
  | putBatch (range : IngestRange) (payload : Bytes)
  | listAdmissions
  | getAdmission (range : IngestRange)
  | putAdmission (record : AdmissionRecord)
  | getDecision (range : IngestRange) (decisionId : String)
  | putDecision (decision : ExpiryDecision)
  | listTransitions (slot : String × UInt32)
  | getTransition (slot : String × UInt32) (previousStateDigest : String)
  | putTransition (transition : Transition)
  | loadCommittedCache (coordinator : ℕ)
  | fillCommittedCache (coordinator : ℕ) (committed : List IngestRange)
  | extendCommittedCache (coordinator : ℕ) (descriptor : IngestRange)

/-- What lies under the prefix of the admissions: records and expiry decisions. -/
structure AdmissionListing where
  records : List IngestRange
  decisions : List (IngestRange × String)

abbrev Reply : Op → Type
  | .readRelationCatalog _ _ => Except ObjectStoreError RelationCatalog
  | .listBatches => Except ObjectStoreError (List IngestRange)
  | .getBatch _ => Except ObjectStoreError Bytes
  | .putBatch _ _ => Except ObjectStoreError Unit
  | .listAdmissions => Except ObjectStoreError AdmissionListing
  | .getAdmission _ => Except ObjectStoreError AdmissionRecord
  | .putAdmission _ => Except ObjectStoreError Unit
  | .getDecision _ _ => Except ObjectStoreError ExpiryDecision
  | .putDecision _ => Except ObjectStoreError Unit
  | .listTransitions _ => Except ObjectStoreError (List String)
  | .getTransition _ _ => Except ObjectStoreError Transition
  | .putTransition _ => Except ObjectStoreError Unit
  | .loadCommittedCache _ => Option (List IngestRange)
  | .fillCommittedCache _ _ => Unit
  | .extendCommittedCache _ _ => Unit

abbrev Storing (α : Type) := FallibleProgram Op Reply IngestLogError α

abbrev Op.ask (op : Op) : Storing (Reply op) := FallibleProgram.ask op

def orFail {α : Type} (reply : Except ObjectStoreError α) : Storing α :=
  match reply with
  | .ok a => pure a
  | .error source => throw (.objectStore source)

def objectExists (range : IngestRange) : Storing Bool := do
  match ← (Op.getBatch range).ask with
  | .ok _ => return true
  | .error .notFound => return false
  | .error source => throw (.objectStore source)

def listCommitted : Storing (List IngestRange) := do
  let objects ← orFail (← Op.listBatches.ask)
  let descriptors := IngestRange.sortByLocation objects
  fromExcept (validateNonOverlappingRanges descriptors)
  return descriptors

def listAdmissionRecordBodies : Storing (List AdmissionRecord) := do
  let objects ← orFail (← Op.listAdmissions.ask)
  forEach (fun range => do orFail (← (Op.getAdmission range).ask))
    (IngestRange.sortByLocation objects.records)

def listAdmissionExpiryDecisions : Storing (List ExpiryDecision) := do
  let objects ← orFail (← Op.listAdmissions.ask)
  let decisions := objects.decisions.insertionSort fun left right =>
    toLex (left.1.location, left.2) ≤ toLex (right.1.location, right.2)
  forEach (fun key => do orFail (← (Op.getDecision key.1 key.2).ask)) decisions

variable (formats : Formats)

def validateIndexTransitionMaterializedAdmission (transition : Transition)
    (requireMaterializedAdmission : Bool) : Storing Unit := do
  match ← (Op.getAdmission transition.admitted.range).ask with
  | .ok materialized =>
    if materialized ≠ transition.admitted ∨
        formats.recordBytes materialized ≠ formats.recordBytes transition.admitted then
      throw (.malformedIngestAdmissionIndexTransition transition.slot
        "materialized admission does not match indexed transition")
    else return ()
  | .error .notFound =>
    if requireMaterializedAdmission then
      throw (.malformedIngestAdmissionIndexTransition transition.slot
        "indexed transition is missing materialized admission")
    else return ()
  | .error source => throw (.objectStore source)

def listRangeAdmissionIndexTransitions (slot : String × UInt32)
    (requireMaterializedAdmission : Bool) : Storing (List Transition) := do
  let objects ← orFail (← (Op.listTransitions slot).ask)
  forEach (fun digest => do
    let transition ← orFail (← (Op.getTransition slot digest).ask)
    validateIndexTransitionMaterializedAdmission formats transition requireMaterializedAdmission
    return transition) (objects.insertionSort (· ≤ ·))

/-- The ranges of the admissions that a decision has expired and no batch has filled. -/
def listExpiredOrphanAdmissionKeys (slot : String × UInt32)
    (bodies : List AdmissionRecord) : Storing (List IngestRange) := do
  let decisions ← listAdmissionExpiryDecisions
  let expired ← forEach (fun (admission : AdmissionRecord) => do
    if admission.range.slot ≠ slot then return none
    else if ← objectExists admission.range then return none
    else if decisions.any (·.expiresAdmission formats admission) then return some admission.range
    else return none) bodies
  return expired.filterMap id

def validateCommittedAdmission (admission : AdmissionRecord)
    (descriptor : IngestRange) : Storing Unit := do
  let payload ← orFail (← (Op.getBatch descriptor).ask)
  let header ← fromExcept (formats.decode payload)
  let mismatch field := IngestLogError.ingestAdmissionMismatch descriptor field
  if (header.streamId, header.partitionId) ≠ descriptor.slot ∨
      header.startOffsetInclusive ≠ descriptor.startOffsetInclusive ∨
      header.endOffsetExclusive ≠ descriptor.endOffsetExclusive then
    throw (.ingestEnvelope "descriptor mismatch")
  else if header.payloadDigest ≠ admission.fields.payloadDigest then
    throw (mismatch "payload_digest")
  else if header.relationId ≠ admission.fields.relationId then throw (mismatch "relation_id")
  else if header.relationVersion ≠ admission.fields.relationVersion then
    throw (mismatch "relation_version")
  else if header.schemaFingerprint ≠ admission.fields.schemaFingerprint then
    throw (mismatch "schema_fingerprint")
  else if header.eventTimeWatermark ≠ admission.fields.eventTimeWatermark then
    throw (mismatch "event_time_watermark")
  else return ()

/-- The records that are still active: those with a batch, and those that no decision expired. -/
def listActiveAdmissionRecords : Storing (List AdmissionRecord) := do
  let committed ← listCommitted
  let decisions ← listAdmissionExpiryDecisions
  let bodies ← listAdmissionRecordBodies
  let active ← forEach (fun (admission : AdmissionRecord) => do
    if committed.contains admission.range then
      validateCommittedAdmission formats admission admission.range
      return some admission
    else if decisions.any (·.expiresAdmission formats admission) then return none
    else return some admission) bodies
  return active.filterMap id

def loadRangeAdmissionIndexStateForPartition (slot : String × UInt32)
    (requireMaterializedAdmission : Bool) : Storing RangeAdmissionIndexState := do
  let transitions ←
    listRangeAdmissionIndexTransitions formats slot requireMaterializedAdmission
  let bodies ← listAdmissionRecordBodies
  let expired ← listExpiredOrphanAdmissionKeys formats slot bodies
  let indexed := sortAdmissionRecords (bodies.filter (·.range.slot = slot))
  let active ← listActiveAdmissionRecords formats
  let state : RangeAdmissionIndexState :=
    { indexedAdmissions := indexed
      activeAdmissions := sortAdmissionRecords (active.filter (·.range.slot = slot))
      indexedExpiredAdmissionKeys := expired
      stateDigest := formats.stateDigest slot indexed }
  fromExcept (state.advance formats slot transitions.length transitions)

def admissionIndexMaxAdvances : ℕ := 10000

/-- The loop of `reserve_range_admission_index`: a transition that somebody else put first sends
it back to the load. -/
def reserveAdvances (formats : Formats) (record : AdmissionRecord) :
    ℕ → Storing AdmissionReservationOutcome
  | 0 => throw (.malformedIngestAdmissionIndexTransition record.range.slot
      "admission index exceeded 10000 advances")
  | advances + 1 => do
    let state ← loadRangeAdmissionIndexStateForPartition formats record.range.slot false
    match admissionConflict state.activeAdmissions record with
    | .admitted =>
      match ← (Op.putTransition (rangeAdmissionIndexTransition formats record state)).ask with
      | .ok () => return .admitted
      | .error .alreadyExists => reserveAdvances formats record advances
      | .error source => throw (.objectStore source)
    | outcome => return outcome

def reserveRangeAdmissionIndex (record : AdmissionRecord) : Storing AdmissionReservationOutcome :=
  reserveAdvances formats record admissionIndexMaxAdvances

def materializeAdmissionRecord (record : AdmissionRecord) :
    Storing AdmissionReservationOutcome := do
  match ← (Op.putAdmission record).ask with
  | .ok () => return .admitted
  | .error .alreadyExists =>
    let existing ← orFail (← (Op.getAdmission record.range).ask)
    let decisions ← listAdmissionExpiryDecisions
    let missing ←
      if decisions.any (·.expiresAdmission formats existing) then do
        let present ← objectExists existing.range
        pure !present
      else pure false
    if missing then return .conflict existing.range "admission_expired"
    else if existing = record then
      if formats.recordBytes existing = formats.recordBytes record then return .duplicate
      else throw (.malformedIngestAdmissionRecord record.fields.admissionRecordKey
        "materialized admission bytes do not match indexed transition")
    else return .conflict existing.range "same_range_different_digest_reserved"
  | .error source => throw (.objectStore source)

/-- A record of the same range that has been expired and not filled. -/
def expiredMaterializedAdmissionConflict (record : AdmissionRecord) :
    Storing (Option AdmissionReservationOutcome) := do
  let decisions ← listAdmissionExpiryDecisions
  let bodies ← listAdmissionRecordBodies
  match bodies.find? (·.range = record.range) with
  | none => return none
  | some existing =>
    if decisions.any (·.expiresAdmission formats existing) then
      if ← objectExists existing.range then return none
      else return some (.conflict existing.range "admission_expired")
    else return none

def reserveThenMaterializeAdmissionRecord (record : AdmissionRecord) :
    Storing AdmissionReservationOutcome := do
  match ← expiredMaterializedAdmissionConflict formats record with
  | some conflict => return conflict
  | none =>
    match ← reserveRangeAdmissionIndex formats record with
    | .conflict objectKey reason => return .conflict objectKey reason
    | reserved =>
      match ← materializeAdmissionRecord formats record with
      | .conflict objectKey reason => return .conflict objectKey reason
      | materialized =>
        if reserved = .duplicate ∨ materialized = .duplicate then return .duplicate
        else return .admitted

inductive AppendValidatedEnvelopeOutcome
  | appended (descriptor : IngestRange)
  | duplicate (descriptor : IngestRange)
  | conflict (descriptor objectKey : IngestRange) (reason : String)
  deriving DecidableEq

def committedDescriptors (coordinator : ℕ) : Storing (List IngestRange) := do
  match ← (Op.loadCommittedCache coordinator).ask with
  | some committed => return committed
  | none =>
    let loaded ← listCommitted
    (Op.fillCommittedCache coordinator loaded).ask
    return loaded

def committedOverlapConflict (coordinator : ℕ) (descriptor : IngestRange) :
    Storing (Option AppendValidatedEnvelopeOutcome) := do
  let committed ← committedDescriptors coordinator
  return (committed.find? (·.rangesOverlap descriptor)).map fun committed =>
    .conflict descriptor committed "range_overlap_committed"

/-- A record that only asks the index about a range. -/
def indexProbeFieldsForDescriptor (descriptor : IngestRange) : DurableIngestAdmissionRecordV1 where
  schemaVersion := 1
  recordKind := admissionRecordKind
  streamId := descriptor.streamId
  partitionId := descriptor.partitionId
  startOffsetInclusive := descriptor.startOffsetInclusive
  endOffsetExclusive := descriptor.endOffsetExclusive
  eventTimeWatermark := none
  batchKey := descriptor.batchKey
  admissionRecordKey := descriptor.admissionRecordKey
  payloadDigest := "sha256:0000000000000000000000000000000000000000000000000000000000000000"
  relationId := "index_probe"
  relationVersion := "index_probe"
  schemaFingerprint := "sha256:0000000000000000000000000000000000000000000000000000000000000000"
  admissionMode := admissionModeSerialized
  commitGuardBinding := none

def indexedOrCommittedOverlapConflict (coordinator : ℕ)
    (descriptor : IngestRange) : Storing (Option AppendValidatedEnvelopeOutcome) := do
  match ← committedOverlapConflict coordinator descriptor with
  | none => return none
  | some committedConflict =>
    let state ← loadRangeAdmissionIndexStateForPartition formats descriptor.slot false
    let probe ← fromExcept (AdmissionRecord.validated (indexProbeFieldsForDescriptor descriptor))
    match admissionConflict state.activeAdmissions probe with
    | .conflict objectKey reason => return some (.conflict descriptor objectKey reason)
    | _ => return some committedConflict

/-- What an append finds out about a batch that is there already. -/
def compareWithExisting (batch : IngestBatch) (existing : Bytes) :
    Storing AppendValidatedEnvelopeOutcome := do
  let existing ← fromExcept (formats.decode existing)
  let incoming ← fromExcept (formats.decode batch.payload)
  if existing.payloadDigest = incoming.payloadDigest then return .duplicate batch.descriptor
  else return .conflict batch.descriptor batch.descriptor "same_key_different_digest"

def existingBatchConflict (batch : IngestBatch) :
    Storing (Option AppendValidatedEnvelopeOutcome) := do
  match ← (Op.getBatch batch.descriptor).ask with
  | .ok existing => do return some (← compareWithExisting formats batch existing)
  | .error .notFound => return none
  | .error source => throw (.objectStore source)

def appendValidatedBatch (batch : IngestBatch) :
    Storing AppendValidatedEnvelopeOutcome := do
  match ← (Op.putBatch batch.descriptor batch.payload).ask with
  | .ok () => return .appended batch.descriptor
  | .error .alreadyExists =>
    let existing ← orFail (← (Op.getBatch batch.descriptor).ask)
    compareWithExisting formats batch existing
  | .error source => throw (.objectStore source)

/-- The last steps of an append: the batch is put, and the cache learns of it. -/
def commitBatch (coordinator : ℕ) (batch : IngestBatch) :
    Storing AppendValidatedEnvelopeOutcome := do
  match ← appendValidatedBatch formats batch with
  | .appended descriptor =>
    (Op.extendCommittedCache coordinator descriptor).ask
    return .appended descriptor
  | outcome => return outcome

def admitValidatedBatchIndexedBeforeCommittedFallback (coordinator : ℕ)
    (batch : IngestBatch) : Storing AppendValidatedEnvelopeOutcome := do
  match ← existingBatchConflict formats batch with
  | some existing => return existing
  | none =>
    match ← indexedOrCommittedOverlapConflict formats coordinator batch.descriptor with
    | some conflict => return conflict
    | none =>
      let record ← fromExcept (formats.admissionRecordForBatch batch)
      match ← reserveThenMaterializeAdmissionRecord formats record with
      | .conflict objectKey reason => return .conflict batch.descriptor objectKey reason
      | _ =>
        match ← indexedOrCommittedOverlapConflict formats coordinator batch.descriptor with
        | some conflict => return conflict
        | none => commitBatch formats coordinator batch

def catalogValidatedBatch (payload : Bytes) : Storing IngestBatch := do
  let header ← fromExcept (formats.decode payload)
  match ← (Op.readRelationCatalog header.relationId header.relationVersion).ask with
  | .error _ => throw (.relationCatalogRegistry header.relationId)
  | .ok catalog =>
    if header.schemaFingerprint ≠ catalog.schemaFingerprint then
      throw (.relationCatalogMismatch "schema_fingerprint" catalog.schemaFingerprint
        header.schemaFingerprint)
    else
      fromExcept (formats.validateBatches catalog payload)
      fromExcept (formats.fromValidatedEnvelope payload)

def appendCatalogValidatedEnvelope (coordinator : ℕ) (payload : Bytes) :
    Storing AppendValidatedEnvelopeOutcome := do
  let batch ← catalogValidatedBatch formats payload
  admitValidatedBatchIndexedBeforeCommittedFallback formats coordinator batch

/-- `reserve_external_ingest_range_admission`, on the record as its caller hands it over. -/
def reserveExternalIngestRangeAdmission (coordinator : ℕ)
    (fields : DurableIngestAdmissionRecordV1) : Storing AdmissionReservationOutcome := do
  let record ← fromExcept (AdmissionRecord.validated fields)
  match ← committedOverlapConflict coordinator record.range with
  | some (.conflict _ objectKey reason) => return .conflict objectKey reason
  | _ => reserveThenMaterializeAdmissionRecord formats record

def expireOrphanAdmission (range : IngestRange)
    (decisionId expiredReason operatorId : String) : Storing ExpiryDecision := do
  let bodies ← listAdmissionRecordBodies
  match bodies.find? (·.range = range) with
  | none => throw (.missingIngestAdmissionRecord range)
  | some admission =>
    if ← objectExists admission.range then
      throw (.cannotExpireCommittedIngestAdmission admission.range)
    else
      let decision ← fromExcept (expiryDecisionRecordForAdmission formats admission decisionId
        expiredReason operatorId)
      match ← (Op.putDecision decision).ask with
      | .ok () => return decision
      | .error .alreadyExists =>
        let existing ← orFail (← (Op.getDecision decision.range decision.decisionId).ask)
        if existing = decision then return existing
        else throw (.ingestAdmissionExpiryDecisionConflict decision.range decision.decisionId)
      | .error source => throw (.objectStore source)

end Velorix.Admission
