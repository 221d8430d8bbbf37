import Velorix.Admission.Log
import Velorix.Foundation.Pool

/-! The object store that coordinators share, with atomic create-only puts, reads and listings,
and the system of their calls. The lock that a coordinator takes per partition only removes
interleavings, so it is left out. -/
namespace Velorix.Admission

open Storage

/-- The objects of the store by namespace, the relation catalogs, and the caches of the
coordinators. `admitted` records the order in which transitions were created. -/
structure World where
  catalogs : String → String → Option RelationCatalog
  batches : HashMap IngestRange Bytes := ∅
  admissions : HashMap IngestRange AdmissionRecord := ∅
  decisions : HashMap (IngestRange × String) ExpiryDecision := ∅
  transitions : HashMap ((String × UInt32) × String) Transition := ∅
  admitted : List AdmissionRecord := []
  caches : ℕ → Option (List IngestRange) := fun _ => none

namespace World

/-- What a call does when nothing goes wrong. -/
def answer (world : World) : (op : Op) → Reply op × World
  | .readRelationCatalog relationId relationVersion =>
    (found (world.catalogs relationId relationVersion), world)
  | .listBatches => (.ok world.batches.keys, world)
  | .getBatch range => (found (world.batches.lookup range), world)
  | .putBatch range payload => createOnly (world.batches.lookup range) world
      { world with batches := world.batches.insert range payload }
  | .listAdmissions => (.ok ⟨world.admissions.keys, world.decisions.keys⟩, world)
  | .getAdmission range => (found (world.admissions.lookup range), world)
  | .putAdmission record => createOnly (world.admissions.lookup record.range) world
      { world with admissions := world.admissions.insert record.range record }
  | .getDecision range decisionId => (found (world.decisions.lookup (range, decisionId)), world)
  | .putDecision decision => createOnly
      (world.decisions.lookup (decision.range, decision.decisionId)) world
      { world with
        decisions := world.decisions.insert (decision.range, decision.decisionId) decision }
  | .listTransitions slot =>
    (.ok ((world.transitions.keys.filter (·.1 = slot)).map (·.2)), world)
  | .getTransition slot digest => (found (world.transitions.lookup (slot, digest)), world)
  | .putTransition transition => createOnly
      (world.transitions.lookup (transition.slot, transition.previousStateDigest)) world
      { world with
        transitions := world.transitions.insert
          (transition.slot, transition.previousStateDigest) transition
        admitted := world.admitted ++ [transition.admitted] }
  | .loadCommittedCache coordinator => (world.caches coordinator, world)
  | .fillCommittedCache coordinator committed =>
    ((), { world with
      caches := Function.update world.caches coordinator
        (some ((world.caches coordinator).getD committed)) })
  | .extendCommittedCache coordinator descriptor =>
    ((), { world with
      caches := Function.update world.caches coordinator
        ((world.caches coordinator).map (· ++ [descriptor])) })

end World

def Op.Fault : (op : Op) → Reply op → Prop
  | .readRelationCatalog _ _, reply => ∃ error, reply = .error error
  | .listBatches, reply => ∃ error, reply = .error error
  | .getBatch _, reply => ∃ error, reply = .error error ∧ error ≠ .notFound
  | .putBatch _ _, reply => ∃ error, reply = .error error ∧ error ≠ .alreadyExists
  | .listAdmissions, reply => ∃ error, reply = .error error
  | .getAdmission _, reply => ∃ error, reply = .error error ∧ error ≠ .notFound
  | .putAdmission _, reply => ∃ error, reply = .error error ∧ error ≠ .alreadyExists
  | .getDecision _ _, reply => ∃ error, reply = .error error ∧ error ≠ .notFound
  | .putDecision _, reply => ∃ error, reply = .error error ∧ error ≠ .alreadyExists
  | .listTransitions _, reply => ∃ error, reply = .error error
  | .getTransition _ _, reply => ∃ error, reply = .error error ∧ error ≠ .notFound
  | .putTransition _, reply => ∃ error, reply = .error error ∧ error ≠ .alreadyExists
  | .loadCommittedCache _, _ => False
  | .fillCommittedCache _ _, _ => False
  | .extendCommittedCache _ _, _ => False

abbrev Calls : World → (op : Op) → Reply op → World → Prop := Unreliable World.answer Op.Fault

inductive Invocation
  | append (coordinator : ℕ) (payload : Bytes)
  | reserve (coordinator : ℕ) (fields : DurableIngestAdmissionRecordV1)
  | expire (range : IngestRange) (decisionId expiredReason operatorId : String)

inductive Outcome
  | appended (result : Except IngestLogError AppendValidatedEnvelopeOutcome)
  | reserved (result : Except IngestLogError AdmissionReservationOutcome)
  | expired (result : Except IngestLogError ExpiryDecision)
  deriving DecidableEq

def Invocation.body (formats : Formats) : Invocation → Program Op Reply Outcome
  | .append coordinator payload => do
    return .appended (← (appendCatalogValidatedEnvelope formats coordinator payload).run)
  | .reserve coordinator fields => do
    return .reserved (← (reserveExternalIngestRangeAdmission formats coordinator fields).run)
  | .expire range decisionId expiredReason operatorId => do
    return .expired
      (← (expireOrphanAdmission formats range decisionId expiredReason operatorId).run)

/-- Coordinators may be called at any time, as far as the calls are permitted. Nothing else touches
the store. -/
def admissionSystem (formats : Formats) (permitted : Invocation → Prop) :
    System Invocation Op Reply Outcome Empty World where
  body := Invocation.body formats
  accepts _ := permitted
  calls := Calls
  moves _ _ _ := False

def admissionDriver (formats : Formats) (permitted : Invocation → Prop)
    [DecidablePred permitted] : Pool.Driver (admissionSystem formats permitted) where
  answer := World.answer
  admits _ call := permitted call
  perform _ _ := none
  calls := .delivered
  accepts {_ call} h := of_decide_eq_true (p := permitted call) h
  moves h := nomatch h

/-- An envelope that starts with its offsets. -/
def plainEnvelope : Bytes → Except String IngestEnvelopeHeader
  | startOffset :: endOffset :: _ => .ok
    { streamId := "s"
      partitionId := 0
      startOffsetInclusive := startOffset.toUInt64
      endOffsetExclusive := endOffset.toUInt64
      eventTimeWatermark := none
      relationId := "r"
      relationVersion := "1"
      schemaFingerprint := lengthHash.digestBytes []
      payloadDigest := lengthHash.digestBytes [] }
  | _ => .error "short"

/-- Formats under which records of different end offsets make states of different lengths. -/
def plainFormats : Formats where
  hash := lengthHash
  admissionBytes record := [record.startOffsetInclusive.toUInt8, record.endOffsetExclusive.toUInt8]
  stateBytes _ records :=
    List.replicate (records.map fun record => record.endOffsetExclusive.toNat).sum 0
  decodeEnvelope := plainEnvelope
  validateBatches _ _ := .ok ()

def plainCatalogs (_relationId _relationVersion : String) : Option RelationCatalog :=
  some ⟨lengthHash.digestBytes []⟩

end Velorix.Admission
