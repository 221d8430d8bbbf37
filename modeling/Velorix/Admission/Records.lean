import Velorix.Admission.Ranges
import Velorix.Meta.Checkpoint
import Velorix.Storage.ObjectStore

/-! The durable records of ingest admission, and the pure part of the admission index: which
records conflict, and how a transition extends a state of the index. -/
namespace Velorix.Admission

open Storage DecimalText Meta Result BlankText

inductive IngestLogError
  | objectKey (source : ObjectKeyError)
  | malformedIngestAdmissionRecord (key : ObjectKey) (reason : String)
  | malformedIngestAdmissionExpiryDecision (range : IngestRange) (reason : String)
  | malformedIngestAdmissionIndexTransition (slot : String × UInt32) (reason : String)
  | ingestAdmissionExpiryDecisionConflict (range : IngestRange) (decisionId : String)
  | cannotExpireCommittedIngestAdmission (range : IngestRange)
  | overlappingCommittedRange (previous current : IngestRange)
  | missingIngestAdmissionRecord (range : IngestRange)
  | ingestAdmissionMismatch (range : IngestRange) (field : String)
  | relationCatalogRegistry (detail : String)
  | relationCatalogMismatch (field expected actual : String)
  | ingestEnvelope (detail : String)
  | objectStore (source : ObjectStoreError)
  deriving DecidableEq

structure InputEventTimeWatermark where
  streamId : String
  partitionId : UInt32
  eventTimeColumnId : String
  maxObservedEventTimeNs : Int64
  watermarkNs : Int64
  deriving DecidableEq

structure IngestCommitGuardBindingV1 where
  schemaVersion : UInt16
  bindingKind : String
  subject : String
  ownerId : String
  ownerEpoch : UInt64
  deriving DecidableEq

structure DurableIngestAdmissionRecordV1 where
  schemaVersion : UInt16
  recordKind : String
  streamId : String
  partitionId : UInt32
  startOffsetInclusive : UInt64
  endOffsetExclusive : UInt64
  eventTimeWatermark : Option InputEventTimeWatermark
  batchKey : ObjectKey
  admissionRecordKey : ObjectKey
  payloadDigest : String
  relationId : String
  relationVersion : String
  schemaFingerprint : String
  admissionMode : String
  commitGuardBinding : Option IngestCommitGuardBindingV1
  deriving DecidableEq

def admissionRecordKind : String := "ingest_range_admission_v1"

def admissionModeSerialized : String := "process_local_serialized"

def expect (key : ObjectKey) (reason : String) (holds : Bool) : Except IngestLogError Unit :=
  if holds then .ok () else .error (.malformedIngestAdmissionRecord key reason)

def IngestCommitGuardBindingV1.validate (binding : IngestCommitGuardBindingV1)
    (key : ObjectKey) : Except IngestLogError Unit := do
  expect key ("commit_guard_binding has unsupported schema_version " ++
    String.ofList (natText binding.schemaVersion.toNat)) (binding.schemaVersion == 1)
  expect key "commit_guard_binding.binding_kind must be nonempty" (!isBlank binding.bindingKind)
  expect key "commit_guard_binding.subject must be nonempty" (!isBlank binding.subject)
  expect key "commit_guard_binding.owner_id must be nonempty" (!isBlank binding.ownerId)
  expect key "commit_guard_binding.owner_epoch must be greater than zero"
    (binding.ownerEpoch != 0)

def fromObjectKey {α : Type} : Except ObjectKeyError α → Except IngestLogError α
  | .ok a => .ok a
  | .error source => .error (.objectKey source)

namespace DurableIngestAdmissionRecordV1

def range? (record : DurableIngestAdmissionRecordV1) : Except IngestLogError IngestRange :=
  fromObjectKey (IngestRange.build record.streamId record.partitionId
    record.startOffsetInclusive record.endOffsetExclusive)

def validateKey (record : DurableIngestAdmissionRecordV1) : Except IngestLogError IngestRange := do
  let range ← record.range?
  let key := record.admissionRecordKey
  expect key ("unsupported schema_version " ++
    String.ofList (natText record.schemaVersion.toNat)) (record.schemaVersion == 1)
  expect key ("unsupported record_kind `" ++ record.recordKind ++ "`")
    (record.recordKind == admissionRecordKind)
  expect key ("batch_key `" ++ record.batchKey.value ++ "` does not match record range")
    (record.batchKey == range.batchKey)
  expect key ("admission_record_key does not match expected `" ++
    range.admissionRecordKey.value ++ "`") (key == range.admissionRecordKey)
  expect key "payload_digest must be sha256:<64 hex chars>" (isSha256Digest record.payloadDigest)
  expect key "relation_id must be nonempty" (!isBlank record.relationId)
  expect key "relation_version must be nonempty" (!isBlank record.relationVersion)
  expect key "schema_fingerprint must be sha256:<64 hex chars>"
    (isSha256Digest record.schemaFingerprint)
  expect key ("unsupported admission_mode `" ++ record.admissionMode ++ "`")
    (record.admissionMode == admissionModeSerialized)
  match record.commitGuardBinding with
  | some binding => binding.validate key
  | none => .ok ()
  return range

end DurableIngestAdmissionRecordV1

/-- A record that passed its checks, with the range it is about. Only such records are stored, and
they are checked again when they are read. -/
structure AdmissionRecord where
  fields : DurableIngestAdmissionRecordV1
  range : IngestRange
  valid : fields.validateKey = .ok range
  deriving DecidableEq

namespace AdmissionRecord

def validated (fields : DurableIngestAdmissionRecordV1) : Except IngestLogError AdmissionRecord :=
  match hvalid : fields.validateKey with
  | .error error => .error error
  | .ok range => .ok ⟨fields, range, hvalid⟩

/-- The order in which the states of the index list their records. The admission key that the
order ends with is determined by the range. -/
def rank (record : AdmissionRecord) : String ×ₗ ℕ ×ₗ ℕ ×ₗ ℕ :=
  toLex (record.range.streamId, toLex (record.range.partitionId.toNat,
    toLex (record.range.startOffsetInclusive.toNat, record.range.endOffsetExclusive.toNat)))

end AdmissionRecord

def sortAdmissionRecords (records : List AdmissionRecord) : List AdmissionRecord :=
  records.insertionSort fun left right => left.rank ≤ right.rank

/-- The fields of an envelope that admission reads. -/
structure IngestEnvelopeHeader where
  streamId : String
  partitionId : UInt32
  startOffsetInclusive : UInt64
  endOffsetExclusive : UInt64
  eventTimeWatermark : Option InputEventTimeWatermark
  relationId : String
  relationVersion : String
  schemaFingerprint : String
  payloadDigest : String
  deriving DecidableEq

structure RelationCatalog where
  schemaFingerprint : String
  deriving DecidableEq

/-- The formats that the log relies on: the hash, the JSON of a record and of a state of the
index, the envelope around an Arrow payload, and its check against a relation catalog. -/
structure Formats where
  hash : Hash
  admissionBytes : DurableIngestAdmissionRecordV1 → Bytes
  stateBytes : String × UInt32 → List DurableIngestAdmissionRecordV1 → Bytes
  decodeEnvelope : Bytes → Except String IngestEnvelopeHeader
  validateBatches : RelationCatalog → Bytes → Except IngestLogError Unit

structure IngestBatch where
  descriptor : IngestRange
  payload : Bytes
  deriving DecidableEq

namespace Formats

variable (formats : Formats)

def decode (payload : Bytes) : Except IngestLogError IngestEnvelopeHeader :=
  match formats.decodeEnvelope payload with
  | .ok header => .ok header
  | .error detail => .error (.ingestEnvelope detail)

def fromValidatedEnvelope (payload : Bytes) : Except IngestLogError IngestBatch := do
  let header ← formats.decode payload
  let descriptor ← fromObjectKey (IngestRange.build header.streamId header.partitionId
    header.startOffsetInclusive header.endOffsetExclusive)
  return ⟨descriptor, payload⟩

def admissionRecordForBatch (batch : IngestBatch) : Except IngestLogError AdmissionRecord := do
  let header ← formats.decode batch.payload
  AdmissionRecord.validated
    { schemaVersion := 1
      recordKind := admissionRecordKind
      streamId := batch.descriptor.streamId
      partitionId := batch.descriptor.partitionId
      startOffsetInclusive := batch.descriptor.startOffsetInclusive
      endOffsetExclusive := batch.descriptor.endOffsetExclusive
      eventTimeWatermark := header.eventTimeWatermark
      batchKey := batch.descriptor.batchKey
      admissionRecordKey := batch.descriptor.admissionRecordKey
      payloadDigest := header.payloadDigest
      relationId := header.relationId
      relationVersion := header.relationVersion
      schemaFingerprint := header.schemaFingerprint
      admissionMode := admissionModeSerialized
      commitGuardBinding := none }

def recordBytes (record : AdmissionRecord) : Bytes := formats.admissionBytes record.fields

def recordDigest (record : AdmissionRecord) : String :=
  formats.hash.digestBytes (formats.recordBytes record)

def stateDigest (slot : String × UInt32) (records : List AdmissionRecord) : String :=
  formats.hash.digestBytes (formats.stateBytes slot (records.map (·.fields)))

end Formats

theorem range_of_validateKey {fields : DurableIngestAdmissionRecordV1} {r : IngestRange}
    (h : fields.validateKey = .ok r) :
    IngestRange.build fields.streamId fields.partitionId fields.startOffsetInclusive
      fields.endOffsetExclusive = .ok r := by
  obtain ⟨built, hb, h⟩ := bind_eq_ok.mp h
  have hs : built = r := by
    repeat' obtain ⟨_, -, h⟩ := bind_eq_ok.mp h
    split at h
    all_goals
      obtain ⟨_, -, h⟩ := bind_eq_ok.mp h
      exact Except.ok.inj h
  subst hs
  unfold DurableIngestAdmissionRecordV1.range? fromObjectKey at hb
  split at hb
  · cases hb
    assumption
  · cases hb

theorem range_of_admissionRecordForBatch {formats : Formats} {b : IngestBatch}
    {rec : AdmissionRecord} (h : formats.admissionRecordForBatch b = .ok rec) :
    rec.range = b.descriptor := by
  obtain ⟨he, -, hv⟩ := bind_eq_ok.mp h
  unfold AdmissionRecord.validated at hv
  split at hv
  · cases hv
  · rename_i r hvalid
    cases hv
    have hb := range_of_validateKey hvalid
    rw [IngestRange.build_self, Except.ok.injEq] at hb
    exact hb.symm

inductive AdmissionReservationOutcome
  | admitted
  | duplicate
  | conflict (objectKey : IngestRange) (reason : String)
  deriving DecidableEq

/-- The first record that has the same range or shares an offset decides. -/
def admissionConflict (active : List AdmissionRecord) (record : AdmissionRecord) :
    AdmissionReservationOutcome :=
  match active with
  | [] => .admitted
  | candidate :: rest =>
    if candidate.range = record.range then
      if candidate = record then .duplicate
      else .conflict candidate.range "same_range_different_digest_reserved"
    else if candidate.range.meets record.range then
      .conflict candidate.range "range_overlap_reserved"
    else admissionConflict rest record

def validateNonOverlappingRanges : List IngestRange → Except IngestLogError Unit
  | previous :: current :: rest =>
    if previous.slot = current.slot ∧
        current.startOffsetInclusive < previous.endOffsetExclusive then
      .error (.overlappingCommittedRange previous current)
    else validateNonOverlappingRanges (current :: rest)
  | _ => .ok ()

structure ExpiryDecision where
  range : IngestRange
  decisionId : String
  admissionRecordDigest : String
  expiredReason : String
  operatorId : String
  deriving DecidableEq

def ExpiryDecision.expiresAdmission (formats : Formats) (decision : ExpiryDecision)
    (admission : AdmissionRecord) : Bool :=
  decision.range = admission.range &&
    decision.admissionRecordDigest = formats.recordDigest admission

def expiryDecisionRecordForAdmission (formats : Formats) (admission : AdmissionRecord)
    (decisionId expiredReason operatorId : String) : Except IngestLogError ExpiryDecision := do
  fromObjectKey (validateSegment "decision_id" decisionId)
  if isBlank expiredReason then
    .error (.malformedIngestAdmissionExpiryDecision admission.range
      "expired_reason must be nonempty")
  else if isBlank operatorId then
    .error (.malformedIngestAdmissionExpiryDecision admission.range "operator_id must be nonempty")
  else .ok ⟨admission.range, decisionId, formats.recordDigest admission, expiredReason, operatorId⟩

/-- A step of the index. It is stored under the digest of the state it starts from. -/
structure Transition where
  previousStateDigest : String
  nextStateDigest : String
  admitted : AdmissionRecord
  deriving DecidableEq

def Transition.slot (transition : Transition) : String × UInt32 := transition.admitted.range.slot

structure RangeAdmissionIndexState where
  indexedAdmissions : List AdmissionRecord
  activeAdmissions : List AdmissionRecord
  indexedExpiredAdmissionKeys : List IngestRange
  stateDigest : String

def rangeAdmissionIndexTransition (formats : Formats) (record : AdmissionRecord)
    (state : RangeAdmissionIndexState) : Transition where
  previousStateDigest := state.stateDigest
  nextStateDigest := formats.stateDigest record.range.slot
    (sortAdmissionRecords (state.indexedAdmissions ++ [record]))
  admitted := record

namespace RangeAdmissionIndexState

def malformed (slot : String × UInt32) (reason : String) : IngestLogError :=
  .malformedIngestAdmissionIndexTransition slot reason

def applyTransition (formats : Formats) (state : RangeAdmissionIndexState)
    (transition : Transition) : Except IngestLogError RangeAdmissionIndexState :=
  let admitted := transition.admitted
  let slot := transition.slot
  if transition.previousStateDigest ≠ state.stateDigest then
    .error (malformed slot "previous_state_digest does not match current head")
  else
    let expired := state.indexedExpiredAdmissionKeys.contains admitted.range
    let selfMaterialized := state.activeAdmissions.any fun active => active.range = admitted.range
    if !expired && !selfMaterialized &&
        admissionConflict state.activeAdmissions admitted ≠ .admitted then
      .error (malformed slot "transition admits an overlapping active range")
    else
      let indexed :=
        if state.indexedAdmissions.any fun indexed => indexed.range = admitted.range then
          state.indexedAdmissions
        else sortAdmissionRecords (state.indexedAdmissions ++ [admitted])
      let nextDigest := formats.stateDigest slot indexed
      if transition.nextStateDigest ≠ nextDigest then
        .error (malformed slot "next_state_digest does not match computed digest")
      else
        .ok
          { state with
            indexedAdmissions := indexed
            activeAdmissions :=
              if !expired && !selfMaterialized then
                sortAdmissionRecords (state.activeAdmissions ++ [admitted])
              else state.activeAdmissions
            stateDigest := nextDigest }

/-- Follows the transitions from the digest of the state. Each is used once. -/
def advance (formats : Formats) (slot : String × UInt32) :
    ℕ → List Transition → RangeAdmissionIndexState →
      Except IngestLogError RangeAdmissionIndexState
  | 0, _, state => .ok state
  | fuel + 1, transitions, state =>
    match transitions.filter (·.previousStateDigest = state.stateDigest) with
    | [] => .ok state
    | [transition] => do
      let next ← state.applyTransition formats transition
      advance formats slot fuel
        (transitions.filter (·.previousStateDigest ≠ state.stateDigest)) next
    | _ => .error (malformed slot "multiple transitions share previous_state_digest")

end RangeAdmissionIndexState

end Velorix.Admission
